/-
VmSim.Replacement.Fifo — the FIFO policy
(`src/replacement/fifo.c`).

`queue` is the used part `queue[0 .. size)` of the array, so `size` is
its length and the shifting deletion of `fifo_on_evict` is `eraseIdx`.
-/
import Mathlib.Algebra.Group.Nat.Defs
import Mathlib.Data.List.Nodup
import Mathlib.Data.List.Range
import Mathlib.Data.List.Perm.Subperm

namespace VmSim

/-- `REPLACEMENT_INVALID_FRAME` -/
def replacementInvalidFrame : Nat := 2 ^ 32 - 1

structure FifoState where
  queue : List Nat
  loaded : Nat → Bool

def fifoCreate : FifoState := ⟨[], fun _ => false⟩

def fifoOnLoad (frameCount : Nat) (state : FifoState) (frameNumber : Nat) : Int × FifoState :=
  if state.loaded frameNumber then (0, state)
  else if state.queue.length ≥ frameCount then (-1, state)
  else (0, ⟨state.queue ++ [frameNumber], Function.update state.loaded frameNumber true⟩)

def fifoOnAccess (state : FifoState) (frameNumber : Nat) : Int × FifoState :=
  (if state.loaded frameNumber then 0 else -1, state)

def fifoOnEvict (state : FifoState) (frameNumber : Nat) : Int × FifoState :=
  if !state.loaded frameNumber then (-1, state)
  else match state.queue.findIdx? (· == frameNumber) with
    | none => (-1, state)
    | some position =>
      (0, ⟨state.queue.eraseIdx position, Function.update state.loaded frameNumber false⟩)

def fifoChooseVictim (state : FifoState) : Nat × FifoState :=
  (state.queue.headD replacementInvalidFrame, state)

/-! ## What the operations keep

`queue` lists exactly the loaded frames, each once. -/

structure FifoState.Wf (frameCount : Nat) (state : FifoState) : Prop where
  nodup : state.queue.Nodup
  mem_iff : ∀ f, f ∈ state.queue ↔ state.loaded f = true
  lt : ∀ f, state.loaded f = true → f < frameCount

theorem fifoCreate_wf (frameCount : Nat) : fifoCreate.Wf frameCount :=
  ⟨List.nodup_nil, by simp [fifoCreate], by simp [fifoCreate]⟩

/-- The capacity check of `fifo_on_load` never fires for an unloaded
frame: the loaded ones and it are distinct frames below the count. -/
theorem FifoState.Wf.length_lt {frameCount : Nat} {state : FifoState}
    (h : state.Wf frameCount) {f : Nat} (hf : f < frameCount) (hl : state.loaded f = false) :
    state.queue.length < frameCount := by
  have hmem : f ∉ state.queue := by simp [h.mem_iff, hl]
  have hnodup : (f :: state.queue).Nodup := List.nodup_cons.mpr ⟨hmem, h.nodup⟩
  have hsub : f :: state.queue ⊆ List.range frameCount := by
    intro g hg
    rw [List.mem_range]
    rcases List.mem_cons.mp hg with rfl | hg
    · exact hf
    · exact h.lt g ((h.mem_iff g).mp hg)
  have hlen := (List.subperm_of_subset hnodup hsub).length_le
  rw [List.length_cons, List.length_range] at hlen
  exact hlen

theorem fifoOnLoad_spec {frameCount : Nat} {state : FifoState} (h : state.Wf frameCount)
    {f : Nat} (hf : f < frameCount) (hl : state.loaded f = false) :
    (fifoOnLoad frameCount state f).1 = 0 ∧ (fifoOnLoad frameCount state f).2.Wf frameCount ∧
      (fifoOnLoad frameCount state f).2.loaded = Function.update state.loaded f true := by
  have hlen : ¬ state.queue.length ≥ frameCount := Nat.not_le.mpr (h.length_lt hf hl)
  have hmem : f ∉ state.queue := by simp [h.mem_iff, hl]
  simp only [fifoOnLoad, hl, Bool.false_eq_true, if_false, hlen]
  refine ⟨trivial, ⟨?_, fun g => ?_, fun g hg => ?_⟩, trivial⟩
  · exact List.nodup_append.mpr ⟨h.nodup, by simp, by
      intro a ha b hb; rw [List.mem_singleton.mp hb]; exact fun e => hmem (e ▸ ha)⟩
  · by_cases e : g = f
    · simp [e]
    · simp [e, h.mem_iff]
  · by_cases e : g = f
    · exact e ▸ hf
    · exact h.lt g (by simpa [e] using hg)

theorem fifoOnEvict_spec {frameCount : Nat} {state : FifoState} (h : state.Wf frameCount)
    {f : Nat} (hl : state.loaded f = true) :
    (fifoOnEvict state f).1 = 0 ∧ (fifoOnEvict state f).2.Wf frameCount ∧
      (fifoOnEvict state f).2.loaded = Function.update state.loaded f false := by
  have hmem : f ∈ state.queue := (h.mem_iff f).mpr hl
  obtain ⟨position, hpos⟩ : ∃ position, state.queue.findIdx? (· == f) = some position := by
    rw [← Option.isSome_iff_exists, List.findIdx?_isSome]
    simpa using hmem
  have herase : state.queue.eraseIdx position = state.queue.erase f := by
    rw [List.erase_eq_eraseIdx, List.idxOf?, hpos]
  simp only [fifoOnEvict, hl, Bool.not_true, Bool.false_eq_true, if_false, hpos, herase]
  refine ⟨trivial, ⟨h.nodup.erase f, fun g => ?_, fun g hg => ?_⟩, trivial⟩
  · by_cases e : g = f
    · subst e; simp [h.nodup.mem_erase_iff]
    · simp [e, h.nodup.mem_erase_iff, h.mem_iff]
  · by_cases e : g = f
    · simp [e] at hg
    · exact h.lt g (by simpa [e] using hg)

theorem fifoChooseVictim_loaded {frameCount : Nat} {state : FifoState}
    (h : state.Wf frameCount) :
    (fifoChooseVictim state).1 = replacementInvalidFrame ∨
      state.loaded (fifoChooseVictim state).1 = true := by
  unfold fifoChooseVictim
  cases hq : state.queue with
  | nil => exact Or.inl rfl
  | cons f rest => exact Or.inr ((h.mem_iff f).mp (by simp [hq]))

end VmSim
