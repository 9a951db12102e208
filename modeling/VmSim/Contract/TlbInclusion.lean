/-
VmSim.Contract.TlbInclusion — a larger TLB never hits less.

Two virtual memories that differ in the size of the TLB make the same
steps. Their TLBs stand for LRU caches, the smaller of which stays within
the larger one (`LruCache.Within`: its entries are there in the same
order, and no more places are taken), so whatever the smaller one finds
the larger one finds too.
-/
import VmSim.VirtualMemory.TranslationCache

namespace VmSim

open Lib

variable {w w' w₁ w₂ w₁' w₂' : World} {n c₁ c₂ k : Nat} {type : ReplacementPolicyType}
  {slots : Option Nat} {m₁ m₂ : VirtualMemory} {history : List (Call × Reply)} {s : Pager}
  {call : Call} {reply : Reply} {answers answers₁ answers₂ : TlbAnswers} {p page : Nat}

/-! ## One call -/

theorem Pager.tlbCalls_untargeted (ht : call.target = none) (s : Pager)
    (answers answers' : TlbAnswers) : s.tlbCalls answers call = s.tlbCalls answers' call := by
  cases call with
  | access p a t => cases ht
  | readByte p a => cases ht
  | writeByte p a value => cases ht
  | _ => rfl

theorem TranslationStats.after_hits (stats : TranslationStats) (call : Call) (hit : Option Nat)
    (levels : Nat) : (stats.after call hit levels).tlbHits =
      if call.target.isSome ∧ hit.isSome then increment stats.tlbHits else stats.tlbHits := by
  unfold TranslationStats.after TranslationStats.looked
  cases call.target <;> cases hit <;> rfl

/-- The state of two virtual memories in lockstep after `count` calls. -/
structure World.Larger (w₁ w₂ : World) (c₁ c₂ count : Nat) : Prop where
  pager : w₁.pager = w₂.pager
  caches : ∃ (cache₁ : TlbCache c₁) (cache₂ : TlbCache c₂), w₁.Caches (3 * count) cache₁ ∧
    w₂.Caches (3 * count) cache₂ ∧ cache₁.Within cache₂
  hits : w₁.memory.stats.tlbHits ≤ w₂.memory.stats.tlbHits
  hits_le : w₂.memory.stats.tlbHits ≤ count

/-- What the smaller TLB finds, the larger one finds. -/
theorem World.Caches.hit_larger {cache₁ : TlbCache c₁} {cache₂ : TlbCache c₂}
    (h₁ : w₁.Caches k cache₁) (h₂ : w₂.Caches k cache₂) (hwithin : cache₁.Within cache₂)
    (hpager : w₁.pager = w₂.pager) (hk : k + 1 < wordSize) (ha : w₁.Allows call)
    (hhit : (w₁.hit call).isSome) : (w₂.hit call).isSome := by
  cases ht : call.target with
  | none =>
    rw [World.hit, ht] at hhit
    cases hhit
  | some target =>
    rw [h₁.hit hk ha ht, hpager] at hhit
    rw [h₂.hit hk (ha.congr hpager) ht]
    obtain ⟨f, hf⟩ := Option.isSome_iff_exists.mp hhit
    rw [hwithin.find hf]
    rfl

/-- A call keeps the caches one within the other. -/
theorem World.Caches.within_calls {cache₁ : TlbCache c₁} {cache₂ : TlbCache c₂}
    (h₁ : w₁.Caches k cache₁) (h₂ : w₂.Caches k cache₂) (hwithin : cache₁.Within cache₂)
    (hpager : w₁.pager = w₂.pager) (hk : k + 1 < wordSize) (ha : w₁.Allows call)
    (hs₁ : w₁.Stepped call answers₁ reply w₁') (hf₁ : w₁.pager.Faithful call answers₁)
    (hs₂ : w₂.Stepped call answers₂ reply w₂') (hf₂ : w₂.pager.Faithful call answers₂) :
    (cache₁.perform (w₁.pager.tlbCalls answers₁ call)).Within
      (cache₂.perform (w₂.pager.tlbCalls answers₂ call)) := by
  rw [hpager]
  cases ht : call.target with
  | none =>
    rw [Pager.tlbCalls_untargeted ht _ answers₁ answers₂]
    exact TlbCache.within_perform _ hwithin
  | some target =>
    obtain ⟨isWrite, hcalls⟩ := Pager.tlbCalls_target ht
    rw [hcalls, hcalls]
    refine TlbCache.within_access hwithin h₂.pos ?_ ?_ hf₁.moved hf₂.moved
      (fun f => hf₂.hit _ _ f ht) isWrite
    · rw [hs₁.hit, h₁.hit hk ha ht, hpager]
    · rw [hs₂.hit, h₂.hit hk (ha.congr hpager) ht]

theorem World.Larger.step {count : Nat} (h : w₁.Larger w₂ c₁ c₂ count)
    (hcount : 3 * count + 3 < wordSize) (ha : w₁.Allows call)
    (hrun : w₁.step call = some (reply, w₁')) :
    ∃ w₂', w₂.step call = some (reply, w₂') ∧ w₁'.Larger w₂' c₁ c₂ (count + 1) := by
  obtain ⟨hpager, ⟨cache₁, cache₂, h₁, h₂, hwithin⟩, hhits, hle⟩ := h
  obtain ⟨answers₁, reply₁, w₁'', hs₁, hf₁, h₁'⟩ := h₁.stepped hcount ha
  obtain ⟨answers₂, reply₂, w₂', hs₂, hf₂, h₂'⟩ := h₂.stepped hcount (ha.congr hpager)
  obtain ⟨rfl, rfl⟩ := hs₁.unique hrun
  have hsame := Pager.step_answers hf₁
  rw [hs₁.pager, hpager, ← Pager.step_answers hf₂, hs₂.pager] at hsame
  obtain ⟨rfl, hpager'⟩ := Prod.mk.inj hsame
  have hlarger := h₁.hit_larger h₂ hwithin hpager (by omega) ha
  rw [← hs₁.hit, ← hs₂.hit] at hlarger
  obtain ⟨levels₁, _, ht₁⟩ := hs₁.translations
  obtain ⟨levels₂, _, ht₂⟩ := hs₂.translations
  have hhits₁ := congrArg TranslationStats.tlbHits ht₁
  have hhits₂ := congrArg TranslationStats.tlbHits ht₂
  rw [TranslationStats.after_hits] at hhits₁ hhits₂
  simp only [VirtualMemoryStats.translation, increment] at hhits₁ hhits₂
  rw [Nat.mod_eq_of_lt (by omega)] at hhits₁ hhits₂
  refine ⟨w₂', hs₂.run, hpager', ⟨_, _, h₁', h₂',
    h₁.within_calls h₂ hwithin hpager (by omega) ha hs₁ hf₁ hs₂ hf₂⟩, ?_, ?_⟩
  · rw [hhits₁, hhits₂]
    split
    · rename_i hhit
      rw [if_pos ⟨hhit.1, hlarger hhit.2⟩]
      omega
    · split <;> omega
  · rw [hhits₂]
    split <;> omega

/-! ## Runs -/

theorem World.boot_larger (h₁ : virtualMemoryCreateInternal n type c₁ slots = some m₁)
    (h₂ : virtualMemoryCreateInternal n type c₂ slots = some m₂) (hn : n < 2 ^ 32)
    (hc : c₁ ≤ c₂) : (World.boot m₁).Larger (World.boot m₂) c₁ c₂ 0 := by
  obtain ⟨_, _, htlb₁, _, _, _, hstats₁⟩ := virtualMemoryCreateInternal_some h₁
  obtain ⟨_, _, htlb₂, _, _, _, hstats₂⟩ := virtualMemoryCreateInternal_some h₂
  refine ⟨World.boot_pager h₁ h₂, ⟨.empty, .empty,
    ⟨World.boot_young h₁ hn, (tlbCreate_represents htlb₁).1⟩,
    ⟨World.boot_young h₂ hn, (tlbCreate_represents htlb₂).1⟩, LruCache.within_empty hc⟩, ?_, ?_⟩
  · show m₁.stats.tlbHits ≤ m₂.stats.tlbHits
    rw [hstats₁, hstats₂]
  · show m₂.stats.tlbHits ≤ 0
    rw [hstats₂]
    exact Nat.le_refl 0

/-- **A larger TLB never hits less**: the run of a virtual memory is a run
of one with a larger TLB, and after every call (a history can stop
anywhere) all valid entries of the smaller TLB are in the larger one, and
the smaller one has not hit more often. -/
theorem tlb_inclusion (hn : n < 2 ^ 32)
    (h₁ : virtualMemoryCreateInternal n type c₁ slots = some m₁)
    (h₂ : virtualMemoryCreateInternal n type c₂ slots = some m₂) (hc : c₁ ≤ c₂)
    (hlength : history.length < 2 ^ 62)
    (hrun : Run World.step World.Allows (World.boot m₁) history w₁) :
    ∃ w₂, Run World.step World.Allows (World.boot m₂) history w₂ ∧
      (∀ pid page f, w₁.memory.tlb.Holds pid page f → w₂.memory.tlb.Holds pid page f) ∧
      w₁.memory.stats.tlbHits ≤ w₂.memory.stats.tlbHits := by
  have hlockstep : history.length < 2 ^ 62 →
      ∃ w₂, Run World.step World.Allows (World.boot m₂) history w₂ ∧
        w₁.Larger w₂ c₁ c₂ history.length := by
    refine Run.invariant (fun history w₁ => history.length < 2 ^ 62 →
      ∃ w₂, Run World.step World.Allows (World.boot m₂) history w₂ ∧
        w₁.Larger w₂ c₁ c₂ history.length)
      (fun _ => ⟨_, .start, World.boot_larger h₁ h₂ hn hc⟩) ?_ hrun
    intro history w₁ call reply w₁' ih ha hstep hlength
    rw [List.length_cons] at hlength
    have hclock : 3 * history.length + 3 < wordSize := by
      simp only [wordSize]
      omega
    obtain ⟨w₂, hrun₂, hlarger⟩ := ih (by omega)
    obtain ⟨w₂', hstep₂, hlarger'⟩ := hlarger.step hclock ha hstep
    exact ⟨w₂', hrun₂.next (ha.congr hlarger.pager) hstep₂, hlarger'⟩
  obtain ⟨w₂, hrun₂, hlarger⟩ := hlockstep hlength
  obtain ⟨cache₁, cache₂, hcache₁, hcache₂, hwithin⟩ := hlarger.caches
  refine ⟨w₂, hrun₂, fun pid page f hh => ?_, hlarger.hits⟩
  rw [hcache₁.represents.holds] at hh
  rw [hcache₂.represents.holds]
  exact hwithin.entries.subset hh

/-- One TLB entry against three, with a page moved by copy-on-write. -/
theorem tlb_inclusion_fork : ∃ m₁ m₂ history w₁ w₂,
    virtualMemoryCreateInternal 3 .clock 1 (some 1) = some m₁ ∧
      virtualMemoryCreateInternal 3 .clock 3 (some 1) = some m₂ ∧
      Run World.step World.Allows (World.boot m₁) history w₁ ∧
      Run World.step World.Allows (World.boot m₂) history w₂ ∧
      w₁.memory.stats.tlbHits = 0 ∧ w₁.memory.stats.tlbHits ≤ w₂.memory.stats.tlbHits ∧
      w₁.memory.tlb.Holds 1 1 0 ∧ w₂.memory.tlb.Holds 1 1 0 := by
  have hafter : (World.after 3 .clock 1 (some 1) [.createProcess 1, .writeByte 0 0x1000 5,
      .fork 0 2, .writeByte 1 0x1000 6, .readByte 0 0x2000, .writeByte 1 0x1000 7,
      .readByte 0 0x1000]).any (fun r => decide (r.1.length = 7 ∧
        r.2.memory.stats.tlbHits = 0 ∧ r.2.memory.tlb.found 1 1 = some 0)) = true := by
    decide +kernel
  obtain ⟨⟨history, w₁⟩, hafter, hend⟩ := (Option.any_eq_true _ _).mp hafter
  obtain ⟨hlength, hhits, hfound⟩ := of_decide_eq_true hend
  have hseven : history.length = 7 := hlength
  obtain ⟨m₁, h₁, hrun⟩ := World.reachable_of_after hafter
  have hcreated : (virtualMemoryCreateInternal 3 .clock 3 (some 1)).isSome = true := by
    decide +kernel
  obtain ⟨m₂, h₂⟩ := Option.isSome_iff_exists.mp hcreated
  obtain ⟨w₂, hrun₂, hholds, hle⟩ := tlb_inclusion (by decide) h₁ h₂ (by decide) (by omega) hrun
  have hheld : w₁.memory.tlb.Holds 1 1 0 := Tlb.found_some hfound
  exact ⟨m₁, m₂, history, w₁, w₂, h₁, h₂, hrun, hrun₂, hhits, hle, hheld, hholds _ _ _ hheld⟩

end VmSim
