/-
VmSim.Contract.Aging — which frame the Aging policy gives up, in terms of
the last eight accesses that succeeded.

The ages tell them as long as no access is crowded out of the TLB
(`aging_history`). An access that is has loaded its page, but fails before
the tick; the next access that succeeds folds both references in
(`aging_history_crowded`).
-/
import VmSim.VirtualMemory.AgingRuns

namespace VmSim

open Lib

variable {w w' : World} {n tlbEntries v : Nat} {slots : Option Nat} {memory : VirtualMemory}
  {history : List (Call × Reply)} {s : LoggedWorld}

/-- The choice of a victim, as the log has it: the lowest-numbered loaded
frame that none of the last eight accesses touched, or else the loaded
frame that was touched least recently. -/
structure AgingState.Gives (state : AgingState) (log : List Touch) (v : Nat) : Prop where
  loaded : state.loaded v = true
  untouched : ∀ g, state.loaded g = true → Untouched log g → Untouched log v ∧ v ≤ g
  touched : (∀ g, state.loaded g = true → ¬ Untouched log g) →
    ∀ g, state.loaded g = true → g ≠ v → TouchedLater log g v

theorem LoggedWorld.Aged.gives (h : s.Aged n) (hn : n < 2 ^ 32) {state : AgingState}
    (hpolicy : s.world.memory.replacementPolicy = ⟨n, .aging state⟩)
    (htells : state.Tells s.log) {policy : ReplacementPolicy}
    (hchoose : replacementPolicyChooseVictim s.world.memory.replacementPolicy = some (v, policy))
    (hvalid : v ≠ replacementInvalidFrame) : state.Gives s.log v := by
  have hwf : s.world.memory.replacementPolicy.Wf := h.coherent.wf.consistent.policy
  rw [hpolicy] at hwf hchoose
  have hv : (agingChooseVictim n state).1 = v := congrArg Prod.fst (Option.some.inj hchoose)
  obtain ⟨hl, huntouched, htouched⟩ := htells.victim hn hwf.state hv hvalid
  exact ⟨hl, huntouched, htouched⟩

/-- A page fault with no free frame ends on the victim. -/
theorem LoggedWorld.Aged.replaces (h : s.Aged n) {call : Call} {reply : Reply}
    {s' : LoggedWorld} {p a : Nat} (ha : s.Allows call) (hs : s.step call = some (reply, s'))
    (haccessed : call.accessed = some (p, a)) (hok : reply.succeeded = true)
    (hm : s.world.translate p a = none)
    (hfull : s.world.memory.physicalMemory.firstFree = none) :
    ∃ v policy, replacementPolicyChooseVictim s.world.memory.replacementPolicy =
      some (v, policy) ∧ v ≠ replacementInvalidFrame ∧ s'.world.translate p a = some v := by
  obtain ⟨⟨reply, w'⟩, hrun, heq⟩ := Option.map_eq_some_iff.mp hs
  cases heq
  obtain ⟨answers, hstepped, hc'⟩ := h.coherent.stepped ha.1 hrun
  have hc := h.coherent.wf.consistent
  have ht : call.target = some (p, addressPageNumber a) := by
    rw [Call.target_eq, haccessed, Option.map_some]
  have hend := h.coherent.endsMarked ha.1 ha.2 ht hstepped
  rw [h.coherent.wf.translate_eq] at hm
  rcases hend with ⟨hfailed, _⟩ | ⟨_, touch, hmapped, _, hmarks⟩
  · rw [hok] at hfailed
    cases hfailed
  · generalize w'.pager.policy = policy' at hmarks
    cases hmarks with
    | accessed hm' =>
      rw [hm] at hm'
      cases hm'
    | copied hm' _ =>
      rw [hm] at hm'
      cases hm'
    | placed _ hf =>
      rw [show s.world.pager.physical.firstFree = none from hfull] at hf
      cases hf
    | replaced hm' hchoose hocc =>
      refine ⟨_, _, hchoose, fun he => ?_, (hc'.wf.translate_eq p a).trans hmapped⟩
      have hlt := hc.frame_lt hocc
      have hcount := hc.count_lt
      rw [he, replacementInvalidFrame] at hlt
      omega

/-- **Aging approximates LRU over the last eight accesses**: in every run in
which no access is crowded out of the TLB, the bit `7 - k` of the age of a
loaded frame is set iff the access `k` before the last one ended on it
since it was loaded. A page fault that finds no free frame takes the
victim, the one the log gives. -/
theorem aging_history (hn : n < 2 ^ 32)
    (hcreate : virtualMemoryCreateInternal n .aging tlbEntries slots = some memory)
    (hrun : Run LoggedWorld.step LoggedWorld.Allows (LoggedWorld.boot memory) history s) :
    ∃ state, s.world.memory.replacementPolicy = ⟨n, .aging state⟩ ∧
      (∀ f, state.loaded f = true → ∀ k < 8,
        ((state.ages f).getLsbD (7 - k) = true ↔ TouchedAt s.log f k)) ∧
      (∀ v policy, replacementPolicyChooseVictim s.world.memory.replacementPolicy =
        some (v, policy) → v ≠ replacementInvalidFrame → state.Gives s.log v) ∧
      ∀ call reply s' p a, s.Allows call → s.step call = some (reply, s') →
        call.accessed = some (p, a) → reply.succeeded = true → s.world.translate p a = none →
        s.world.memory.physicalMemory.firstFree = none →
        ∃ v policy, replacementPolicyChooseVictim s.world.memory.replacementPolicy =
          some (v, policy) ∧ v ≠ replacementInvalidFrame ∧ s'.world.translate p a = some v := by
  have h := LoggedWorld.aged hcreate hn hrun
  obtain ⟨state, hpolicy, htells⟩ := h.aged
  exact ⟨state, hpolicy, htells.bit, fun v policy hchoose hvalid =>
    h.gives hn hpolicy htells hchoose hvalid, fun call reply s' p a ha hs haccessed hok hm hfull =>
    h.replaces ha hs haccessed hok hm hfull⟩

instance LoggedWorld.decidableAllows (s : LoggedWorld) (call : Call) :
    Decidable (s.Allows call) :=
  inferInstanceAs (Decidable (_ ∧ ¬ s.world.Crowded call))

/-- Two frames: after pages 1, 2 and 1 again, the victim is frame 1. -/
theorem aging_history_two : ∃ memory history s state policy,
    virtualMemoryCreateInternal 2 .aging 2 none = some memory ∧
      Run LoggedWorld.step LoggedWorld.Allows (LoggedWorld.boot memory) history s ∧
      s.log = [⟨0, false⟩, ⟨1, true⟩, ⟨0, true⟩] ∧
      s.world.memory.replacementPolicy = ⟨2, .aging state⟩ ∧
      replacementPolicyChooseVictim s.world.memory.replacementPolicy = some (1, policy) ∧
      state.Gives s.log 1 := by
  have hafter : ((virtualMemoryCreateInternal 2 .aging 2 none).bind fun memory =>
      (runChecked LoggedWorld.step LoggedWorld.Allows [] (LoggedWorld.boot memory)
        [.createProcess 1, .readByte 0 0x1000, .readByte 0 0x2000, .readByte 0 0x1000]).map
        fun r => (memory, r)).any (fun r => decide (
          r.2.2.log = [⟨0, false⟩, ⟨1, true⟩, ⟨0, true⟩] ∧
          (replacementPolicyChooseVictim r.2.2.world.memory.replacementPolicy).map Prod.fst =
            some 1)) = true := by decide +kernel
  obtain ⟨⟨memory, history, s⟩, hafter, hcheck⟩ := (Option.any_eq_true _ _).mp hafter
  obtain ⟨hlog, hvictim⟩ := of_decide_eq_true hcheck
  obtain ⟨memory', hcreate, hchecked⟩ := Option.bind_eq_some_iff.mp hafter
  obtain ⟨r, hchecked, heq⟩ := Option.map_eq_some_iff.mp hchecked
  cases heq
  obtain ⟨⟨v, policy⟩, hchoose, rfl⟩ := Option.map_eq_some_iff.mp hvictim
  have hrun := Run.of_runChecked _ .start hchecked
  obtain ⟨state, hpolicy, _, hgives, _⟩ := aging_history (by decide) hcreate hrun
  exact ⟨memory, history, s, state, policy, hcreate, hrun, hlog, hpolicy, hchoose,
    hgives 1 policy hchoose (by decide)⟩

/-! ## A TLB at the end of its clock

A process accesses its page 1 again and again, with one entry in the TLB,
until the stamp of the entry is the last one. Then it accesses page 2. -/

/-- The TLB has the translation of page 1 only, stamped `k`. -/
structure World.Lapping (w : World) (k : Nat) : Prop where
  coherent : w.Coherent (· < 2 ^ 36)
  capacity : w.memory.tlb.capacity = 1
  entry : w.memory.tlb.entries 0 = ⟨true, 1, 1, 0, k⟩
  clock : w.memory.tlb.logicalClock = k
  pid : w.pager.pid 0 = 1
  processes : w.pager.processes = [0]
  mapped : w.pager.mapped 0 1 = some 0

/-- Page 2 and page 3 are not resident, and frame 1 is free. -/
structure World.Waiting (w : World) : Prop where
  free : w.pager.physical.firstFree = some 1
  second : w.pager.mapped 0 2 = none
  third : w.pager.mapped 0 3 = none

variable {k : Nat}

theorem World.Lapping.allows (h : w.Lapping k) {a : Nat} (ha : a < 2 ^ 48) :
    w.Allows (.access 0 a .read) := by
  refine ⟨⟨?_, fun q hq _ => ?_⟩, ha⟩
  · show 0 ≤ w.pager.pid 0
    rw [h.pid]
    decide
  · have hmem : q ∈ w.pager.processes := hq
    rw [h.processes] at hmem
    exact List.mem_singleton.mp hmem

theorem World.Lapping.found (h : w.Lapping k) (page : Nat) :
    tlbFindExistingEntry w.memory.tlb 1 page = if page = 1 then some 0 else none := by
  by_cases e : 1 = page
  · subst e
    simp [tlbFindExistingEntry, h.capacity, h.entry, TlbEntry.matches]
  · simp [tlbFindExistingEntry, h.capacity, h.entry, TlbEntry.matches, e, Ne.symm e]

/-- The lookup finds page 1 and stamps it. -/
theorem World.Lapping.lookup (h : w.Lapping k) :
    tlbLookup w.memory.tlb 1 1 = (some 0, tlbRegisterAccess w.memory.tlb 0 ⟨true, 1, 1, 0, k⟩) := by
  unfold tlbLookup
  rw [if_neg (by decide), h.found, if_pos rfl, ← h.entry]
  simp only [h.entry]

theorem Pager.notify_firstFree (s : Pager) (f : Nat) (isWrite : Bool) :
    (s.notify f isWrite).physical.firstFree = s.physical.firstFree := by
  have hsame : ∀ g, ((s.notify f isWrite).physical.frames g).occupied =
      (s.physical.frames g).occupied := by
    intro g
    by_cases e : g = f
    · simp [Pager.notify, Pager.touch, PhysicalFrame.touch, e]
    · simp [Pager.notify, Pager.touch, e]
  unfold PhysicalMemory.firstFree
  simp only [hsame]
  rfl

/-- One more access to page 1. -/
theorem World.Lapping.next (h : w.Lapping k) :
    ∃ w', w.step (.access 0 0x1000 .read) = some (.result .ok, w') ∧
      w'.Lapping ((k + 1) % wordSize) ∧ w'.pager.mapped = w.pager.mapped ∧
      w'.pager.physical.firstFree = w.pager.physical.firstFree ∧
      w'.pager.policy = replacementPolicyTick (replacementPolicyOnAccess w.pager.policy 0).2 := by
  obtain ⟨answers, reply, w', hs, hc'⟩ :=
    h.coherent.step keysApart_lt (h.allows (a := 0x1000) (by decide)).pager
  have hhit : answers.hit = some 0 := by
    rw [hs.hit]
    show (tlbLookup w.memory.tlb (w.pager.pid 0) 1).1 = some 0
    rw [h.pid, h.lookup]
  have hend : w.pager.step answers (.access 0 0x1000 .read) =
      (.result .ok, ((w.pager.register 0).count false).notify 0 false) := by
    have haccess : w.pager.access answers 0 1 false =
        (.ok, ((w.pager.register 0).count false).notify 0 false) := by
      rw [Pager.access_hit hhit]
      rfl
    show (Reply.result (w.pager.access answers 0 1 false).1,
      (w.pager.access answers 0 1 false).2) = _
    rw [haccess]
  rw [hs.pager] at hend
  obtain ⟨rfl, hpager⟩ := Prod.mk.inj hend
  have htlb : w'.memory.tlb = tlbRegisterAccess w.memory.tlb 0 ⟨true, 1, 1, 0, k⟩ := by
    have hcalls : w.pager.tlbCalls answers (.access 0 0x1000 .read) = [.lookup 1 1] := by
      show w.pager.accessCalls answers 0 1 false = _
      rw [Pager.accessCalls, Pager.answeredCalls, hhit, h.pid]
      rfl
    rw [hs.performed, hcalls]
    show (tlbLookup w.memory.tlb 1 1).2 = _
    rw [h.lookup]
  have hregister : w.pager.register 0 = w.pager := by
    simp [Pager.register, h.processes]
  rw [hregister] at hpager
  refine ⟨w', hs.run, ⟨hc', ?_, ?_, ?_, ?_, ?_, ?_⟩, ?_, ?_, ?_⟩
  · rw [htlb]
    exact h.capacity
  · rw [htlb]
    simp [tlbRegisterAccess, h.clock]
  · rw [htlb]
    simp [tlbRegisterAccess, h.clock]
  · rw [hpager]
    exact h.pid
  · rw [hpager]
    exact h.processes
  · rw [hpager]
    exact h.mapped
  · rw [hpager]
    rfl
  · rw [hpager, Pager.notify_firstFree]
    rfl
  · rw [hpager]
    rfl

/-- Every access finds page 1 in the TLB, up to the last stamp. -/
theorem World.Lapping.runs {start : LoggedWorld}
    (hrun : Run LoggedWorld.step LoggedWorld.Allows start history s) (hl : s.world.Lapping 1)
    (hw : s.world.Waiting) (m : Nat) : ∀ _ : m + 1 < wordSize, ∃ history s,
      Run LoggedWorld.step LoggedWorld.Allows start history s ∧ s.world.Lapping (m + 1) ∧
        s.world.Waiting := by
  induction m with
  | zero => exact fun _ => ⟨history, s, hrun, hl, hw⟩
  | succ m ih =>
    intro hm
    obtain ⟨history', s₁, hrun₁, hl₁, hw₁⟩ := ih (by omega)
    obtain ⟨w', hstep, hl', hmapped, hfree, _⟩ := hl₁.next
    rw [Nat.mod_eq_of_lt hm] at hl'
    have hw' : w'.Waiting := by
      refine ⟨hfree.trans hw₁.free, ?_, ?_⟩
      · rw [hmapped]
        exact hw₁.second
      · rw [hmapped]
        exact hw₁.third
    have hallows := hl₁.allows (a := 0x1000) (by decide)
    have hlogged : s₁.step (.access 0 0x1000 .read) = some (.result .ok,
        ⟨w', (s₁.world.logged w' (.access 0 0x1000 .read) (.result .ok)).toList ++ s₁.log⟩) := by
      rw [LoggedWorld.step, hstep]
      rfl
    have hroom : ¬ s₁.world.Crowded (.access 0 0x1000 .read) := by
      rintro ⟨⟨hmiss, _⟩, _⟩
      have hhit : (tlbLookup s₁.world.memory.tlb (s₁.world.pager.pid 0) 1).1 = none := hmiss
      rw [hl₁.pid, hl₁.lookup] at hhit
      cases hhit
    exact ⟨_, _, hrun₁.next ⟨hallows, hroom⟩ hlogged, hl', hw'⟩

/-- Page 2 is loaded, but its translation is refused. -/
theorem World.Lapping.refused (h : w.Lapping (wordSize - 1)) (hw : w.Waiting) :
    ∃ w', w.step (.access 0 0x2000 .read) = some (.result w.pager.faultError, w') ∧
      w'.Lapping (wordSize - 1) ∧ w'.pager.mapped = rebind w.pager.mapped 0 2 (some 1) ∧
      w'.pager.policy = (replacementPolicyOnLoad w.pager.policy 1).2 := by
  have hp : 0 ≤ w.pager.pid 0 := by
    rw [h.pid]
    decide
  have hmiss : w.memory.tlb.found (w.pager.pid 0) 2 = none := by
    rw [h.pid, Tlb.found, tlbLookup, if_neg (by decide), h.found, if_neg (by decide)]
  have hrefused : tlbAccepts w.memory.tlb (w.pager.pid 0) 2 1 = false := by
    have hnofree : tlbFindFreeEntry w.memory.tlb = none := by
      simp [tlbFindFreeEntry, h.capacity, h.entry]
    have hnolru : tlbFindLruEntry w.memory.tlb = none := by
      have hrange : List.range 1 = [0] := rfl
      simp [tlbFindLruEntry, h.capacity, hrange, tlbLruStep, h.entry]
    refine decide_eq_false ?_
    rw [h.pid, tlbInsert, if_neg (by decide), h.found, if_neg (by decide)]
    simp only [hnofree, hnolru]
    decide
  obtain ⟨w', hstep, hpager, htlb⟩ := h.coherent.wf.access_refused (a := 0x2000) hp (by decide)
    hmiss hw.second hw.free hrefused .read
  have hallows := h.allows (a := 0x2000) (by decide)
  obtain ⟨_, _, hc'⟩ := h.coherent.stepped hallows hstep
  have hregister : w.pager.register 0 = w.pager := by
    simp [Pager.register, h.processes]
  have hloaded : w'.pager = (w.pager.count false).countFault.load 0 2 1 false := by
    rw [hpager, hregister]
    rfl
  obtain ⟨hpids, hprocesses, hmapped, _, hpolicy, _⟩ :=
    (w.pager.count false).countFault.load_eq 0 2 1 false
  rw [← hloaded] at hpids hprocesses hmapped hpolicy
  refine ⟨w', hstep, ⟨hc', ?_, ?_, ?_, ?_, ?_, ?_⟩, hmapped, hpolicy⟩
  · rw [htlb]
    exact h.capacity
  · rw [htlb]
    exact h.entry
  · rw [htlb]
    exact h.clock
  · rw [hpids]
    exact h.pid
  · rw [hprocesses]
    exact h.processes
  · rw [hmapped, rebind, if_neg (by decide)]
    exact h.mapped

/-- **The next access folds the reference in**: frame 1 has the bit of the
last access that succeeded, which ended on frame 0. The next page fault
chooses a victim by these ages. -/
theorem aging_history_crowded : ∃ memory history s state,
    virtualMemoryCreateInternal 2 .aging 1 none = some memory ∧
      Run LoggedWorld.step (fun s call => s.world.Allows call) (LoggedWorld.boot memory) history
        s ∧
      s.world.memory.replacementPolicy = ⟨2, .aging state⟩ ∧
      s.world.Allows (.access 0 0x3000 .read) ∧ s.world.translate 0 0x3000 = none ∧
      s.world.memory.physicalMemory.firstFree = none ∧
      state.loaded 1 = true ∧ (state.ages 1).getLsbD (7 - 0) = true ∧ ¬ TouchedAt s.log 1 0 := by
  have hafter : ((virtualMemoryCreateInternal 2 .aging 1 none).bind fun memory =>
      (runChecked LoggedWorld.step LoggedWorld.Allows []
        (LoggedWorld.boot memory) [.createProcess 1, .access 0 0x1000 .read]).map
        fun r => (memory, r)).any (fun r => decide (
          (r.2.2.world.memory.tlb.capacity = 1 ∧ (r.2.2.world.memory.tlb.entries 0).valid = true ∧
            (r.2.2.world.memory.tlb.entries 0).pid = 1 ∧
            (r.2.2.world.memory.tlb.entries 0).virtualPage = 1 ∧
            (r.2.2.world.memory.tlb.entries 0).frameNumber = 0 ∧
            (r.2.2.world.memory.tlb.entries 0).lastAccess = 1 ∧
            r.2.2.world.memory.tlb.logicalClock = 1) ∧
          r.2.2.world.pager.pid 0 = 1 ∧ r.2.2.world.pager.processes = [0] ∧
          r.2.2.world.pager.mapped 0 1 = some 0 ∧
          r.2.2.world.pager.physical.firstFree = some 1 ∧
          r.2.2.world.pager.mapped 0 2 = none ∧ r.2.2.world.pager.mapped 0 3 = none)) = true := by
    decide +kernel
  obtain ⟨⟨memory, history, s⟩, hafter, hcheck⟩ := (Option.any_eq_true _ _).mp hafter
  obtain ⟨⟨hcapacity, hvalid, hentryPid, hpage, hframe, hstamp, hclock⟩, hpid, hprocesses, hmapped,
    hfree, hsecond, hthird⟩ := of_decide_eq_true hcheck
  obtain ⟨memory', hcreate, hchecked⟩ := Option.bind_eq_some_iff.mp hafter
  obtain ⟨r, hchecked, heq⟩ := Option.map_eq_some_iff.mp hchecked
  cases heq
  have hn : 2 < 2 ^ 32 := by decide
  have hrun := Run.of_runChecked _ .start hchecked
  have hcoherent := (LoggedWorld.aged hcreate hn hrun).coherent
  have hentry : s.world.memory.tlb.entries 0 = ⟨true, 1, 1, 0, 1⟩ := by
    generalize s.world.memory.tlb.entries 0 = entry at *
    cases entry
    simp_all
  -- the stamp of the only entry becomes the last one
  obtain ⟨history₁, s₁, hrun₁, hl₁, hw₁⟩ := World.Lapping.runs hrun
    ⟨hcoherent, hcapacity, hentry, hclock, hpid, hprocesses, hmapped⟩
    ⟨hfree, hsecond, hthird⟩ (wordSize - 2) (by decide)
  obtain ⟨state, hpolicy, _⟩ := (LoggedWorld.aged hcreate hn hrun₁).aged
  -- page 2 is refused, page 1 is accessed once more
  obtain ⟨w₂, hstep₂, hl₂, hmapped₂, hpolicy₂⟩ := hl₁.refused hw₁
  obtain ⟨w₃, hstep₃, hl₃, hmapped₃, _, hpolicy₃⟩ := hl₂.next
  have hrun₂ := (hrun₁.imp fun _ _ hok => hok.1).next (hl₁.allows (a := 0x2000) (by decide))
    (show s₁.step (.access 0 0x2000 .read) = some (_, ⟨w₂, _⟩) by
      rw [LoggedWorld.step, hstep₂]
      rfl)
  have hrun₃ := hrun₂.next (hl₂.allows (a := 0x1000) (by decide))
    (show LoggedWorld.step _ (.access 0 0x1000 .read) = some (_, ⟨w₃, _⟩) by
      rw [LoggedWorld.step, hstep₃]
      rfl)
  have hc := hl₃.coherent.wf.consistent
  have hpolicy' : w₃.pager.policy = ⟨2, .aging (agingTick 2
      (agingOnAccess (agingOnLoad state 1).2 0).2)⟩ := by
    rw [hpolicy₃, hpolicy₂, show s₁.world.pager.policy = _ from hpolicy]
    rfl
  have hsecond' : w₃.pager.mapped 0 2 = some 1 := by
    rw [hmapped₃, hmapped₂]
    rfl
  have hthird' : w₃.pager.mapped 0 3 = none := by
    rw [hmapped₃, hmapped₂, rebind, if_neg (by decide)]
    exact hw₁.third
  have hfull : w₃.pager.physical.firstFree = none := by
    have hcount : w₃.pager.physical.frameCount = 2 := by
      rw [← hc.policy_count, hpolicy']
    refine List.find?_eq_none.mpr fun f hf => ?_
    rw [hcount] at hf
    have hused : f = 0 ∨ f = 1 := by
      have hlt := List.mem_range.mp hf
      omega
    rcases hused with rfl | rfl
    · simp [hc.occupied_of_mapped hl₃.mapped]
    · simp [hc.occupied_of_mapped hsecond']
  have hlogged : w₂.logged w₃ (.access 0 0x1000 .read) (.result .ok) = some ⟨0, false⟩ := by
    refine World.logged_some hl₂.coherent.wf hl₃.coherent.wf rfl rfl hl₃.mapped ?_
    exact (decide_eq_false (not_not.mpr hl₂.mapped)).symm
  refine ⟨memory, _, _, _, hcreate, hrun₃, hpolicy', hl₃.allows (by decide),
    (hl₃.coherent.wf.translate_eq 0 0x3000).trans hthird', hfull, ?_, ?_, fun htouched => ?_⟩
  · unfold agingOnAccess
    split <;> simp [agingTick, agingOnLoad]
  · unfold agingOnAccess
    split <;> simp [agingTick, agingOnLoad, agingShift]
  · dsimp only at htouched
    rw [hlogged, Option.toList_some, List.singleton_append, touchedAt_zero] at htouched
    cases htouched

end VmSim
