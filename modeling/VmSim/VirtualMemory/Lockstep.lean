/-
VmSim.VirtualMemory.Lockstep — virtual memories that differ in the size of
the TLB.

A TLB whose hits are what the page tables say and that takes every
translation gives answers with which `Pager.step` does the same as with
none at all (`Pager.step_answers`). Both hold in a coherent state as long
as the TLB clock is young, so two virtual memories that differ in the
size of the TLB make the same steps.
-/
import VmSim.VirtualMemory.Observation

namespace VmSim

open Lib

variable {w w' w₁ w₂ : World} {s s' : Pager} {p page f a n c c₁ c₂ : Nat} {call : Call}
  {answers answers' : TlbAnswers} {reply : Reply} {type : ReplacementPolicyType}
  {slots : Option Nat} {m m₁ m₂ : VirtualMemory}

/-! ## Answers that do not matter -/

/-- The answers of a TLB that agrees with the page tables. -/
structure Pager.Faithful (s : Pager) (call : Call) (answers : TlbAnswers) : Prop where
  hit : ∀ p page f, call.target = some (p, page) → answers.hit = some f → s.mapped p page = some f
  moved : answers.moved = true
  recorded : answers.recorded = true

theorem Pager.access_answers (h : ∀ f, answers.hit = some f → s.mapped p page = some f)
    (hmoved : answers.moved = true) (hrecorded : answers.recorded = true) (isWrite : Bool) :
    s.access answers p page isWrite = s.access ⟨none, true, true⟩ p page isWrite := by
  cases hhit : answers.hit with
  | some f => rw [Pager.access_hit hhit, Pager.access_walked rfl (h f hhit), hmoved]
  | none =>
    cases hm : s.mapped p page with
    | some f => rw [Pager.access_walked hhit hm, Pager.access_walked rfl hm, hmoved, hrecorded]
    | none => rw [Pager.access_fault hhit hm, Pager.access_fault rfl hm, hrecorded]

theorem Pager.step_answers (h : s.Faithful call answers) :
    s.step answers call = s.step ⟨none, true, true⟩ call := by
  cases call with
  | access p a t =>
    simp only [Pager.step, Pager.access_answers (fun f => h.hit p _ f rfl) h.moved h.recorded]
  | readByte p a =>
    simp only [Pager.step, Pager.readByte,
      Pager.access_answers (fun f => h.hit p _ f rfl) h.moved h.recorded]
  | writeByte p a value =>
    simp only [Pager.step, Pager.writeByte,
      Pager.access_answers (fun f => h.hit p _ f rfl) h.moved h.recorded]
  | _ => rfl

/-! ## Steps in lockstep -/

/-- A coherent state with a TLB clock of at most `n`. -/
structure World.Young (w : World) (n : Nat) : Prop where
  coherent : w.Coherent (· < 2 ^ 36)
  fresh : w.memory.tlb.Fresh n
  capacity : 0 < w.memory.tlb.capacity

/-- A TLB with a young clock took what it was given. -/
theorem World.Stepped.accepted (hs : w.Stepped call answers reply w')
    (hcapacity : 0 < w.memory.tlb.capacity) (hfresh : (w.looked call).Fresh n)
    (hn : n + TlbCall.totalTicks (w.pager.tlbCalls answers call).tail < wordSize) :
    answers.moved = true ∧ answers.recorded = true := by
  have hlooked : 0 < (w.looked call).capacity := by
    unfold World.looked
    split
    · rw [Tlb.looked, tlbLookup_capacity]
      exact hcapacity
    · exact hcapacity
  exact ⟨hs.moved.fresh hfresh hn hlooked, hs.recorded.fresh hfresh hn hlooked⟩

theorem World.looked_fresh (h : w.memory.tlb.Fresh n) (hn : n + 3 < wordSize)
    (answers : TlbAnswers) (call : Call) : ∃ m, (w.looked call).Fresh m ∧
      m + TlbCall.totalTicks (w.pager.tlbCalls answers call).tail ≤ n + 3 := by
  have hticks := w.pager.tlbCalls_ticks answers call
  unfold World.looked
  cases ht : call.target with
  | some target =>
    obtain ⟨isWrite, hcalls⟩ := Pager.tlbCalls_target ht
    rw [hcalls, Pager.accessCalls, TlbCall.totalTicks_cons, TlbCall.ticks] at hticks
    refine ⟨n + 1, h.lookup (by omega) _ _, ?_⟩
    rw [hcalls, Pager.accessCalls, List.tail_cons]
    omega
  | none =>
    have htail := TlbCall.tail_ticks (w.pager.tlbCalls answers call)
    exact ⟨n, h, by omega⟩

theorem World.Young.faithful (h : w.Young n) (hn : n + 3 < wordSize)
    (ha : w.Allows call) (hs : w.Stepped call answers reply w') :
    w.pager.Faithful call answers :=
  have ⟨_, hfresh, hle⟩ := World.looked_fresh h.fresh hn answers call
  have haccepted := hs.accepted h.capacity hfresh (Nat.lt_of_le_of_lt hle hn)
  ⟨fun _ _ _ ht hhit => h.coherent.hit_mapped ha.pager ht (hs.hit ▸ hhit), haccepted.1,
    haccepted.2⟩

theorem World.Young.stepped (h : w.Young n) (hn : n + 3 < wordSize) (ha : w.Allows call) :
    ∃ answers reply w', w.Stepped call answers reply w' ∧ w'.Young (n + 3) ∧
      w.pager.Faithful call answers := by
  obtain ⟨answers, reply, w', hs, hc⟩ := h.coherent.step keysApart_lt ha.pager
  refine ⟨answers, reply, w', hs, ⟨hc, hs.tlb.fresh n h.fresh hn, ?_⟩, h.faithful hn ha hs⟩
  rw [hs.tlb.capacity]
  exact h.capacity

theorem World.Young.step (h : w.Young n) (hn : n + 3 < wordSize) (ha : w.Allows call) :
    ∃ reply w', w.step call = some (reply, w') ∧ w'.Young (n + 3) ∧
      w.pager.step ⟨none, true, true⟩ call = (reply, w'.pager) := by
  obtain ⟨answers, reply, w', hs, hy, hf⟩ := h.stepped hn ha
  exact ⟨reply, w', hs.run, hy, by rw [← hs.pager, Pager.step_answers hf]⟩

theorem World.Allows.congr (h : w₁.pager = w₂.pager) (ha : w₁.Allows call) : w₂.Allows call := by
  have hpid : w₁.heap.pid = w₂.heap.pid := congrArg Pager.pid h
  have hprocesses : w₁.memory.processes = w₂.memory.processes := congrArg Pager.processes h
  cases call <;> simp only [World.Allows, World.Live, hpid, hprocesses] at ha ⊢ <;> exact ha

/-! ## Creations -/

theorem World.boot_young (h : virtualMemoryCreateInternal n type c slots = some m) (hn : n < 2 ^ 32) :
    (World.boot m).Young 0 := by
  obtain ⟨_, _, htlb, _⟩ := virtualMemoryCreateInternal_some h
  obtain ⟨_, _, hcapacity, hpos, hfresh⟩ := tlbCreate_spec htlb
  exact ⟨World.boot_coherent h hn _, hfresh, show 0 < m.tlb.capacity from hcapacity ▸ hpos⟩

/-- Two creations that differ in the size of the TLB. -/
theorem World.boot_pager (h₁ : virtualMemoryCreateInternal n type c₁ slots = some m₁)
    (h₂ : virtualMemoryCreateInternal n type c₂ slots = some m₂) :
    (World.boot m₁).pager = (World.boot m₂).pager := by
  have hparts : m₂.physicalMemory = m₁.physicalMemory ∧
      m₂.replacementPolicy = m₁.replacementPolicy ∧ m₂.cowManager = m₁.cowManager ∧
      m₂.swap = m₁.swap := by
    simp only [virtualMemoryCreateInternal, Option.bind_eq_bind, Option.bind_eq_some_iff] at h₁ h₂
    obtain ⟨physical, hphysical, policy, hpolicy, _, _, cow, hcow, h₁⟩ := h₁
    obtain ⟨_, hphysical', _, hpolicy', _, _, _, hcow', h₂⟩ := h₂
    rw [hphysical] at hphysical'
    rw [hpolicy] at hpolicy'
    rw [hcow] at hcow'
    cases hphysical'
    cases hpolicy'
    cases hcow'
    cases slots with
    | none =>
      cases h₁
      cases h₂
      exact ⟨rfl, rfl, rfl, rfl⟩
    | some count =>
      by_cases hcount : count > 0
      · simp only [if_pos hcount] at h₁ h₂
        cases hswap : swapCreate count with
        | none =>
          rw [hswap] at h₁
          cases h₁
        | some swap =>
          rw [hswap] at h₁ h₂
          cases h₁
          cases h₂
          exact ⟨rfl, rfl, rfl, rfl⟩
      · simp only [if_neg hcount] at h₁ h₂
        cases h₁
        cases h₂
        exact ⟨rfl, rfl, rfl, rfl⟩
  obtain ⟨_, _, _, _, _, hprocesses₁, hstats₁⟩ := virtualMemoryCreateInternal_some h₁
  obtain ⟨_, _, _, _, _, hprocesses₂, hstats₂⟩ := virtualMemoryCreateInternal_some h₂
  obtain ⟨hphysical, hpolicy, hcow, hswap⟩ := hparts
  simp only [World.pager, World.boot, hphysical, hpolicy, hcow, hswap, hprocesses₁, hprocesses₂,
    hstats₁, hstats₂]

end VmSim
