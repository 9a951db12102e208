/-
VmSim.VirtualMemory.ForkFreeRuns — runs without a fork.

Such a run keeps `World.ForkFree` as long as the clocks of the TLB and of
the LRU policy do not come to their end; an access advances each of them
by one. With enough slots for all keys no access fails
(`Pager.Solitary.succeeds`).
-/
import VmSim.VirtualMemory.ForkFree

namespace VmSim

open Lib

variable {w w' : World} {s s' : Pager} {p q page f v k n : Nat} {isWrite : Bool} {call : Call}
  {answers : TlbAnswers} {reply : Reply} {slots : Option Nat} {tlb : Tlb}
  {result : VirtualMemoryAccessResult} {type : ReplacementPolicyType} {tlbEntries : Nat}

/-! ## Replies -/

/-- No error was returned. -/
def Reply.succeeded : Reply → Bool
  | .process _ => true
  | .result code => !code.isError
  | .byte value => value.isSome
  | .status succeeded => succeeded

theorem Pager.Outcome.succeeds (hend : s.Outcome p page isWrite result s')
    (h : s.Solitary slots k) (hc : s.Consistent) (keys : Finset (Int × Nat))
    (hkeys : ∀ pid v, s.Uses pid v → (pid, v) ∈ keys)
    (hslots : ∀ count, slots = some count → 0 < count → keys.card ≤ count) :
    result.isError = false ∧ s'.mapped p page ≠ none := by
  have hcounted : s.countFault.Consistent := hc.setStats _
  have hloaded : ∀ (s : Pager) (f : Nat), (s.load p page f isWrite).mapped p page ≠ none := by
    intro s f
    rw [(s.load_eq p page f isWrite).2.2.1]
    simp [rebind]
  cases hend with
  | resident hm =>
    rename_i f
    refine ⟨rfl, ?_⟩
    rw [show (s.notify f isWrite).mapped p page = some f from hm]
    exact Option.some_ne_none f
  | placed hm hf => exact ⟨rfl, hloaded s.countFault _⟩
  | replaced hm hfull hchoose hocc hsaved => exact ⟨rfl, hloaded (Pager.evict _ _) _⟩
  | refused hm hfull hchoose hocc hsaved =>
    exact absurd hsaved (h.not_refused hc hocc keys hkeys hslots (hcounted.chosen hchoose))

theorem Pager.Solitary.succeeds (h : s.Solitary slots k) (hc : s.Consistent)
    (hk : k + 1 < wordSize) (ha : s.Allows (· < 2 ^ 36) call) (ht : call.target = some (p, page))
    (hf : s.Faithful call answers) (keys : Finset (Int × Nat))
    (hkeys : ∀ pid v, s.Uses pid v → (pid, v) ∈ keys)
    (hslots : ∀ count, slots = some count → 0 < count → keys.card ≤ count) :
    (s.step answers call).1.succeeded = true := by
  have haccess : ∀ isWrite, (s.access answers p page isWrite).1.isError = false ∧
      (s.access answers p page isWrite).2.mapped p page ≠ none := by
    intro isWrite
    obtain ⟨hp, _, _⟩ := ha.target ht
    have hend := hc.outcome h.unforked h.policy hk hp (fun f => hf.hit p page f ht) hf.recorded
      isWrite
    have hc₁ : ((s.register p).count isWrite).Consistent := (hc.register hp).setStats _
    obtain ⟨processes, stats, heq⟩ := s.counted_eq p isWrite
    rw [heq] at hend hc₁
    have h₁ : Pager.Solitary { s with processes := processes, stats := stats } slots k :=
      h.congr rfl rfl rfl h.policy
    exact hend.succeeds h₁ hc₁ keys (fun pid v hu => hkeys pid v (hu.congr rfl rfl rfl)) hslots
  cases call with
  | access p' a t =>
    cases ht
    show (!(s.access answers p _ _).1.isError) = true
    rw [(haccess _).1]
    rfl
  | readByte p' a =>
    cases ht
    obtain ⟨hok, hm⟩ := haccess false
    show (s.readByte answers p a).1.isSome = true
    simp only [Pager.readByte, hok]
    simpa using Option.isSome_iff_ne_none.mpr hm
  | writeByte p' a value =>
    cases ht
    obtain ⟨hok, hm⟩ := haccess true
    obtain ⟨f, hf'⟩ := Option.ne_none_iff_exists'.mp hm
    show (s.writeByte answers p a value).1 = true
    simp only [Pager.writeByte, hok, hf']
    rfl
  | _ => cases ht

/-! ## The clock of the TLB -/

theorem Pager.Unforked.writableCalls (h : s.Unforked) (p page f : Nat) (isWrite : Bool) :
    s.writableCalls p page f isWrite = [] := by
  rw [Pager.writableCalls, h.cowCalls, ite_self]

/-- After the lookup nothing but one insertion is timed, and nothing after
a hit. -/
theorem Pager.Unforked.answeredCalls_ticks (h : s.Unforked) (answers : TlbAnswers)
    (p page : Nat) (isWrite : Bool) :
    TlbCall.totalTicks (s.answeredCalls answers p page isWrite) ≤
      if answers.hit.isSome then 0 else 1 := by
  unfold Pager.answeredCalls
  cases answers.hit with
  | some f =>
    simp only [h.writableCalls]
    exact Nat.le_refl 0
  | none =>
    dsimp only
    split
    · rw [Pager.walkedCalls, h.writableCalls, List.nil_append]
      split <;> simp [TlbCall.ticks]
    · exact s.faultCalls_ticks p page

theorem Pager.Unforked.counted (h : s.Unforked) (p : Nat) (isWrite : Bool) :
    ((s.register p).count isWrite).Unforked := by
  obtain ⟨processes, stats, heq⟩ := s.counted_eq p isWrite
  rw [heq]
  exact h

/-- Only an access is timed. -/
theorem Pager.untargeted_ticks (s : Pager) (answers : TlbAnswers) (ht : call.target = none) :
    TlbCall.totalTicks (s.tlbCalls answers call) = 0 := by
  cases call with
  | createProcess pid => rfl
  | fork p childPid =>
    simp only [Pager.tlbCalls]
    split <;> rfl
  | release p =>
    simp only [Pager.tlbCalls, TlbCall.totalTicks_append, Pager.releaseCalls_ticks]
    rfl
  | _ => cases ht

/-! ## Steps -/

/-- The state after a run without a fork that made at most `k` accesses. -/
structure World.ForkFree (w : World) (slots : Option Nat) (k : Nat) : Prop where
  coherent : w.Coherent (· < 2 ^ 36)
  capacity : 0 < w.memory.tlb.capacity
  fresh : w.memory.tlb.Fresh k
  solitary : w.pager.Solitary slots k

/-- A lookup advances the clock of the TLB, or the insertion after it, but
not both. -/
theorem World.ForkFree.looked_fresh (h : w.ForkFree slots k) (hk : k + call.accesses < wordSize)
    (hhit : answers.hit = w.hit call) : ∃ m, (w.looked call).Fresh m ∧
      m + TlbCall.totalTicks (w.pager.tlbCalls answers call).tail ≤ k + call.accesses := by
  unfold World.looked
  cases ht : call.target with
  | some target =>
    obtain ⟨p, page⟩ := target
    obtain ⟨isWrite, hcalls⟩ := Pager.tlbCalls_target ht
    have hticks := (h.solitary.unforked.counted p isWrite).answeredCalls_ticks answers p page isWrite
    rw [World.hit, ht] at hhit
    rw [call.accesses_of_target ht] at hk ⊢
    rw [hcalls, Pager.accessCalls, List.tail_cons]
    cases hfound : answers.hit with
    | some f =>
      rw [hfound, Option.isSome_some, if_pos rfl] at hticks
      exact ⟨k + 1, h.fresh.lookup hk _ _, by omega⟩
    | none =>
      rw [hfound, Option.isSome_none, if_neg Bool.false_ne_true] at hticks
      refine ⟨k, ?_, by omega⟩
      dsimp only
      rw [Tlb.looked, tlbLookup_miss (hhit.symm.trans hfound)]
      exact h.fresh
  | none =>
    have hticks := TlbCall.tail_ticks (w.pager.tlbCalls answers call)
    rw [w.pager.untargeted_ticks answers ht] at hticks
    exact ⟨k, h.fresh, by omega⟩

theorem World.ForkFree.faithful (h : w.ForkFree slots k) (hk : k + call.accesses < wordSize)
    (ha : w.Allows call) (hs : w.Stepped call answers reply w') :
    w.pager.Faithful call answers :=
  have ⟨_, hfresh, hle⟩ := h.looked_fresh hk hs.hit
  have haccepted := hs.accepted h.capacity hfresh (Nat.lt_of_le_of_lt hle hk)
  ⟨fun _ _ _ ht hhit => h.coherent.hit_mapped ha.pager ht (hs.hit ▸ hhit), haccepted.1,
    haccepted.2⟩

theorem World.ForkFree.stepped (h : w.ForkFree slots k) (hk : k + call.accesses < wordSize)
    (ha : w.Allows call) (hfork : call.isFork = false) :
    ∃ answers reply w', w.Stepped call answers reply w' ∧ w.pager.Faithful call answers ∧
      w'.ForkFree slots (k + call.accesses) := by
  obtain ⟨answers, reply, w', hs, hc⟩ := h.coherent.step keysApart_lt ha.pager
  have hf := h.faithful hk ha hs
  have hstate : (w.pager.step answers call).2 = w'.pager := by rw [hs.pager]
  have hsolitary := (h.solitary.step h.coherent.wf.consistent h.coherent.distinct hk ha.pager hfork
    hf).1
  rw [hstate] at hsolitary
  refine ⟨answers, reply, w', hs, hf, hc, by rw [hs.tlb.capacity]; exact h.capacity, ?_, hsolitary⟩
  obtain ⟨m, hfresh, hle⟩ := h.looked_fresh hk hs.hit
  rw [hs.performed]
  cases ht : call.target with
  | some target =>
    obtain ⟨isWrite, hcalls⟩ := Pager.tlbCalls_target ht
    have hperform : w.memory.tlb.perform (w.pager.tlbCalls answers call) =
        (w.looked call).perform (w.pager.tlbCalls answers call).tail := by
      rw [hcalls, World.looked, ht]
      rfl
    rw [hperform]
    exact (hfresh.perform _ (by omega)).mono hle
  | none =>
    have hticks := w.pager.untargeted_ticks answers ht
    exact (h.fresh.perform _ (by omega)).mono (by omega)

/-- A process that exists keeps its pid. -/
theorem Pager.Consistent.step_pid (h : s.Consistent) (hq : 0 ≤ s.pid q) (answers : TlbAnswers)
    (call : Call) : (s.step answers call).2.pid q = s.pid q := by
  have hnext : ∀ pid, Function.update s.pid s.nextProcess pid q = s.pid q := fun pid =>
    Function.update_of_ne (Nat.ne_of_lt (h.pid_lt q hq)) _ _
  have haccess : ∀ p page isWrite, (s.access answers p page isWrite).2.pid = s.pid := by
    intro p page isWrite
    rw [(s.evolves_access answers p page isWrite).pid, Pager.register_eq]
  cases call with
  | createProcess pid =>
    show (s.create pid).2.pid q = s.pid q
    unfold Pager.create
    split
    · rfl
    · exact hnext pid
  | access p a t => exact congrFun (haccess p _ _) q
  | readByte p a =>
    show (s.readByte answers p a).2.pid q = s.pid q
    rw [Pager.readByte_state, haccess]
  | writeByte p a value =>
    show (s.writeByte answers p a value).2.pid q = s.pid q
    rw [(s.evolves_writeByte answers p a value).pid, Pager.register_eq]
  | fork p childPid =>
    show (s.fork p childPid).2.pid q = s.pid q
    unfold Pager.fork
    split
    · rfl
    · rw [Pager.register_eq]
      exact hnext childPid
  | release p =>
    exact congrFun (Pager.Consistent.releaseFrames p (List.range s.physical.frameCount) s h).pid q

theorem World.boot_forkFree {memory : VirtualMemory}
    (h : virtualMemoryCreateInternal n type tlbEntries slots = some memory) (hn : n < 2 ^ 32) :
    (World.boot memory).ForkFree slots 0 := by
  obtain ⟨_, hpolicy, _, _, hswap, _⟩ := virtualMemoryCreateInternal_some h
  have hyoung := World.boot_young h hn
  refine ⟨hyoung.coherent, hyoung.capacity, hyoung.fresh, fun f => ?_, World.boot_exclusive h,
    replacementPolicyCreate_fresh hpolicy, fun swap hs => ?_⟩
  · rw [World.boot_users h]
    exact Nat.zero_le 1
  · obtain ⟨count, hpos, hcount, hcreate⟩ := hswap swap hs
    exact ⟨count, hpos, hcount, .empty, swapCreate_represents hcreate⟩

end VmSim
