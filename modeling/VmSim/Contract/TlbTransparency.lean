/-
VmSim.Contract.TlbTransparency — the TLB changes nothing but its own
counters.

Two virtual memories that differ in the size of the TLB make the same
steps (`VmSim.VirtualMemory.Lockstep`).
-/
import VmSim.VirtualMemory.Lockstep

namespace VmSim

open Lib

variable {w w' w₁ w₂ : World} {n c₁ c₂ : Nat} {type : ReplacementPolicyType} {slots : Option Nat}
  {m₁ m₂ : VirtualMemory} {history : List (Call × Reply)}

/-- Everything agrees but the TLB and the counters of its use. -/
structure World.SameButTlb (w w' : World) : Prop where
  translate : ∀ p a, w.translate p a = w'.translate p a
  physicalMemory : w.memory.physicalMemory = w'.memory.physicalMemory
  cowManager : w.memory.cowManager = w'.memory.cowManager
  replacementPolicy : w.memory.replacementPolicy = w'.memory.replacementPolicy
  swap : w.memory.swap = w'.memory.swap
  processes : w.memory.processes = w'.memory.processes
  pid : ∀ p, w.heap.pid p = w'.heap.pid p
  stats : w.memory.stats.untranslated = w'.memory.stats.untranslated

theorem World.SameButTlb.of_pager (h₁ : w₁.Wf) (h₂ : w₂.Wf) (h : w₁.pager = w₂.pager) :
    w₁.SameButTlb w₂ :=
  ⟨fun p a => by rw [h₁.translate_eq, h₂.translate_eq, h], congrArg Pager.physical h,
    congrArg Pager.cow h, congrArg Pager.policy h, congrArg Pager.swap h,
    congrArg Pager.processes h, fun p => congrFun (congrArg Pager.pid h) p,
    congrArg Pager.stats h⟩

/-- The TLB is transparent: the run of one virtual memory is a run of
another with a TLB of any other size, with the same replies and, after
every call (a history can stop anywhere), the same state but for the TLB. -/
theorem tlb_transparent (hn : n < 2 ^ 32)
    (h₁ : virtualMemoryCreateInternal n type c₁ slots = some m₁)
    (h₂ : virtualMemoryCreateInternal n type c₂ slots = some m₂)
    (hlength : history.length < 2 ^ 62)
    (hrun : Run World.step World.Allows (World.boot m₁) history w₁) :
    ∃ w₂, Run World.step World.Allows (World.boot m₂) history w₂ ∧ w₁.SameButTlb w₂ := by
  have hlockstep : history.length < 2 ^ 62 → w₁.Young (3 * history.length) ∧
      ∃ w₂, Run World.step World.Allows (World.boot m₂) history w₂ ∧
        w₂.Young (3 * history.length) ∧ w₁.pager = w₂.pager := by
    refine Run.invariant (fun history w₁ => history.length < 2 ^ 62 →
      w₁.Young (3 * history.length) ∧
        ∃ w₂, Run World.step World.Allows (World.boot m₂) history w₂ ∧
          w₂.Young (3 * history.length) ∧ w₁.pager = w₂.pager)
      (fun _ => ⟨World.boot_young h₁ hn, _, .start, World.boot_young h₂ hn,
        World.boot_pager h₁ h₂⟩) ?_ hrun
    intro history w₁ call reply w₁' ih ha hstep hlength
    rw [List.length_cons] at hlength
    have hclock : 3 * history.length + 3 < wordSize := by
      simp only [wordSize]
      omega
    obtain ⟨hy₁, w₂, hrun₂, hy₂, hpager⟩ := ih (by omega)
    obtain ⟨reply₁, w₁'', hstep₁, hy₁', hp₁⟩ := hy₁.step hclock ha
    obtain ⟨reply₂, w₂', hstep₂, hy₂', hp₂⟩ := hy₂.step hclock (ha.congr hpager)
    rw [hstep] at hstep₁
    cases hstep₁
    rw [hpager, hp₂] at hp₁
    obtain ⟨hreply, hpager'⟩ := Prod.mk.inj hp₁
    rw [hreply] at hstep₂
    rw [List.length_cons, Nat.mul_add]
    exact ⟨hy₁', w₂', hrun₂.next (ha.congr hpager) hstep₂, hy₂', hpager'.symm⟩
  obtain ⟨hy₁, w₂, hrun₂, hy₂, hpager⟩ := hlockstep hlength
  exact ⟨w₂, hrun₂, .of_pager hy₁.coherent.wf hy₂.coherent.wf hpager⟩

theorem tlb_transparent_fork : ∃ m₁ m₂ history w₁ w₂,
    virtualMemoryCreateInternal 2 .clock 1 (some 1) = some m₁ ∧
      virtualMemoryCreateInternal 2 .clock 3 (some 1) = some m₂ ∧ history.length = 5 ∧
      Run World.step World.Allows (World.boot m₁) history w₁ ∧
      Run World.step World.Allows (World.boot m₂) history w₂ ∧ w₁.SameButTlb w₂ := by
  have hafter : (World.after 2 .clock 1 (some 1) [.createProcess 1, .writeByte 0 0x1000 5,
      .fork 0 2, .writeByte 1 0x1000 6, .readByte 0 0x2000]).any (·.1.length = 5) = true := by
    decide +kernel
  obtain ⟨⟨history, w₁⟩, hafter, hlength⟩ := (Option.any_eq_true _ _).mp hafter
  have hfive : history.length = 5 := of_decide_eq_true hlength
  obtain ⟨m₁, h₁, hrun⟩ := World.reachable_of_after hafter
  have hcreated : (virtualMemoryCreateInternal 2 .clock 3 (some 1)).isSome = true := by
    decide +kernel
  obtain ⟨m₂, h₂⟩ := Option.isSome_iff_exists.mp hcreated
  obtain ⟨w₂, hrun₂, hsame⟩ := tlb_transparent (by decide) h₁ h₂ (by omega) hrun
  exact ⟨m₁, m₂, history, w₁, w₂, h₁, h₂, hfive, hrun, hrun₂, hsame⟩

end VmSim
