/-
VmSim.Replacement.Calls — the calls of the replacement interface as one
machine.

`ReplacementPolicy.step` answers a call; it is undefined only for a
search of a victim that does not end. `loadedAt` reads off a history when
a frame came into memory: an `on_load` counts if the frame was not in
memory, and only an `on_evict` takes it out again.
-/
import VmSim.Replacement.Policy
import VmSim.Lib.Transition

namespace VmSim

open Lib

inductive PolicyCall where
  | onLoad (frameNumber : Nat)
  | onAccess (frameNumber : Nat)
  | onEvict (frameNumber : Nat)
  | chooseVictim

inductive PolicyReply where
  | code (code : Int)
  | frame (frameNumber : Nat)
  deriving DecidableEq

/-- The frame number of the call, if it has one, is valid. -/
def PolicyCall.Valid (frameCount : Nat) : PolicyCall → Prop
  | .onLoad f => f < frameCount
  | .onAccess f => f < frameCount
  | .onEvict f => f < frameCount
  | .chooseVictim => True

instance PolicyCall.decidableValid (frameCount : Nat) :
    (call : PolicyCall) → Decidable (call.Valid frameCount)
  | .onLoad f => inferInstanceAs (Decidable (f < frameCount))
  | .onAccess f => inferInstanceAs (Decidable (f < frameCount))
  | .onEvict f => inferInstanceAs (Decidable (f < frameCount))
  | .chooseVictim => .isTrue trivial

def ReplacementPolicy.step (policy : ReplacementPolicy) :
    PolicyCall → Option (PolicyReply × ReplacementPolicy)
  | .onLoad f =>
    let answer := replacementPolicyOnLoad policy f
    some (.code answer.1, answer.2)
  | .onAccess f =>
    let answer := replacementPolicyOnAccess policy f
    some (.code answer.1, answer.2)
  | .onEvict f =>
    let answer := replacementPolicyOnEvict policy f
    some (.code answer.1, answer.2)
  | .chooseVictim =>
    (replacementPolicyChooseVictim policy).map fun answer => (.frame answer.1, answer.2)

/-- The calls made before the `on_load` that brought `f` into memory. -/
def loadedAt (f : Nat) : List (PolicyCall × PolicyReply) → Option Nat
  | [] => none
  | (call, _) :: history =>
    match call with
    | .onLoad g => if g = f then (loadedAt f history).or (some history.length)
      else loadedAt f history
    | .onEvict g => if g = f then none else loadedAt f history
    | _ => loadedAt f history

theorem loadedAt_lt {f time : Nat} {history : List (PolicyCall × PolicyReply)}
    (h : loadedAt f history = some time) : time < history.length := by
  induction history with
  | nil => cases h
  | cons entry history ih =>
    obtain ⟨call, reply⟩ := entry
    have hlater : loadedAt f history = some time → time < history.length + 1 := by
      intro h
      exact Nat.lt_succ_of_lt (ih h)
    cases call with
    | onLoad g =>
      simp only [loadedAt] at h
      split at h
      · rcases Option.or_eq_some_iff.mp h with h | ⟨_, h⟩
        · exact hlater h
        · cases h
          exact Nat.lt_succ_self _
      · exact hlater h
    | onEvict g =>
      simp only [loadedAt] at h
      split at h
      · cases h
      · exact hlater h
    | onAccess g => exact hlater h
    | chooseVictim => exact hlater h

/-! ## The Clock policy over whole runs -/

variable {frameCount : Nat} {state : ClockState}

theorem ClockState.Wf.onLoad (h : state.Wf frameCount) {f : Nat} (hf : f < frameCount) :
    (clockOnLoad state f).2.Wf frameCount :=
  ⟨update_loaded_lt hf h.lt, h.hand_lt⟩

theorem ClockState.Wf.onAccess (h : state.Wf frameCount) (f : Nat) :
    (clockOnAccess state f).2.Wf frameCount := by
  unfold clockOnAccess
  split
  · exact h
  · exact ⟨h.lt, h.hand_lt⟩

theorem ClockState.Wf.onEvict (h : state.Wf frameCount) (f : Nat) :
    (clockOnEvict state f).2.Wf frameCount := by
  unfold clockOnEvict
  split
  · exact h
  · exact ⟨update_unloaded_lt h.lt, h.hand_lt⟩

/-- The search for a victim ends: only the Clock policy has a loop whose end
depends on its state. -/
def ReplacementPolicy.Searches (policy : ReplacementPolicy) : Prop :=
  match policy.state with
  | .clock s => s.Wf policy.frameCount
  | _ => True

theorem ReplacementPolicy.Searches.onLoad {policy : ReplacementPolicy} (h : policy.Searches)
    (f : Nat) : (replacementPolicyOnLoad policy f).2.Searches := by
  obtain ⟨n, state⟩ := policy
  unfold replacementPolicyOnLoad
  split
  · rename_i hf
    cases state with
    | clock s => exact ClockState.Wf.onLoad h hf
    | _ => trivial
  · exact h

theorem ReplacementPolicy.Searches.onAccess {policy : ReplacementPolicy} (h : policy.Searches)
    (f : Nat) : (replacementPolicyOnAccess policy f).2.Searches := by
  obtain ⟨n, state⟩ := policy
  unfold replacementPolicyOnAccess
  split
  · cases state with
    | clock s => exact ClockState.Wf.onAccess h f
    | _ => trivial
  · exact h

theorem ReplacementPolicy.Searches.onEvict {policy : ReplacementPolicy} (h : policy.Searches)
    (f : Nat) : (replacementPolicyOnEvict policy f).2.Searches := by
  obtain ⟨n, state⟩ := policy
  unfold replacementPolicyOnEvict
  split
  · cases state with
    | clock s => exact ClockState.Wf.onEvict h f
    | _ => trivial
  · exact h

theorem ReplacementPolicy.Searches.tick {policy : ReplacementPolicy} (h : policy.Searches) :
    (replacementPolicyTick policy).Searches := by
  obtain ⟨n, state⟩ := policy
  cases state with
  | aging s => trivial
  | _ => exact h

theorem ReplacementPolicy.Searches.chooseVictim {policy : ReplacementPolicy}
    (h : policy.Searches) :
    ∃ victim policy', replacementPolicyChooseVictim policy = some (victim, policy') ∧
      policy'.Searches := by
  obtain ⟨n, state⟩ := policy
  cases state with
  | clock s =>
    obtain ⟨answer, hchoose, hwf, _⟩ := ClockState.Wf.chooseVictim h
    exact ⟨answer.1, ⟨n, .clock answer.2⟩, by simp [replacementPolicyChooseVictim, hchoose], hwf⟩
  | _ => exact ⟨_, _, rfl, trivial⟩

theorem replacementPolicyCreate_searches {type : ReplacementPolicyType} {n : Nat}
    {policy : ReplacementPolicy} (h : replacementPolicyCreate type n = some policy) :
    policy.Searches := by
  unfold replacementPolicyCreate at h
  split at h
  · cases h
  · rename_i hpos
    cases h
    cases type with
    | clock => exact ⟨by simp [clockCreate], Nat.pos_of_ne_zero hpos⟩
    | _ => trivial

/-- A Clock policy stays one. -/
theorem ClockState.Wf.step (h : state.Wf frameCount) (hn : frameCount ≤ 2 ^ 32) {call : PolicyCall}
    {reply : PolicyReply} {policy : ReplacementPolicy}
    (hstep : ReplacementPolicy.step ⟨frameCount, .clock state⟩ call = some (reply, policy)) :
    ∃ state', policy = ⟨frameCount, .clock state'⟩ ∧ state'.Wf frameCount := by
  cases call with
  | onLoad f =>
    simp only [ReplacementPolicy.step, replacementPolicyOnLoad] at hstep
    split at hstep
    · rename_i hf
      cases hstep
      exact ⟨_, rfl, h.onLoad hf⟩
    · cases hstep
      exact ⟨_, rfl, h⟩
  | onAccess f =>
    simp only [ReplacementPolicy.step, replacementPolicyOnAccess] at hstep
    split at hstep
    · cases hstep
      exact ⟨_, rfl, h.onAccess f⟩
    · cases hstep
      exact ⟨_, rfl, h⟩
  | onEvict f =>
    simp only [ReplacementPolicy.step, replacementPolicyOnEvict] at hstep
    split at hstep
    · cases hstep
      exact ⟨_, rfl, h.onEvict f⟩
    · cases hstep
      exact ⟨_, rfl, h⟩
  | chooseVictim =>
    obtain ⟨answer, hanswer, _, _, hwf⟩ := clockChooseVictim_spec hn h
    simp only [ReplacementPolicy.step, replacementPolicyChooseVictim, hanswer, Option.map_some]
      at hstep
    cases hstep
    exact ⟨_, rfl, hwf⟩

theorem clock_run (hn : frameCount ≤ 2 ^ 32) {start policy : ReplacementPolicy}
    (hcreate : replacementPolicyCreate .clock frameCount = some start)
    {history : List (PolicyCall × PolicyReply)}
    (hrun : Run ReplacementPolicy.step (fun _ _ => True) start history policy) :
    ∃ state, policy = ⟨frameCount, .clock state⟩ ∧ state.Wf frameCount := by
  refine Run.invariant (fun _ policy => ∃ state, policy = ⟨frameCount, .clock state⟩ ∧
    state.Wf frameCount) ?_ ?_ hrun
  · unfold replacementPolicyCreate at hcreate
    split at hcreate
    · cases hcreate
    · rename_i hpos
      cases hcreate
      exact ⟨clockCreate, rfl, by simp [clockCreate], Nat.pos_of_ne_zero hpos⟩
  · rintro history _ call reply policy' ⟨state, rfl, h⟩ _ hstep
    exact h.step hn hstep

end VmSim
