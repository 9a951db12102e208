/-
VmSim.Replacement.Policy — the common interface of the four policies
(`src/replacement/replacement.c`).

The table of function pointers of a policy is the constructor of its
state; every entry point checks the frame number first
(`replacement_frame_is_valid`).
-/
import VmSim.Replacement.Lru
import VmSim.Replacement.Clock
import VmSim.Replacement.Aging

namespace VmSim

inductive ReplacementPolicyType where
  | fifo
  | lru
  | clock
  | aging
  deriving DecidableEq

inductive PolicyState where
  | fifo (state : FifoState)
  | lru (state : LruState)
  | clock (state : ClockState)
  | aging (state : AgingState)

structure ReplacementPolicy where
  frameCount : Nat
  state : PolicyState

def replacementPolicyCreate (type : ReplacementPolicyType) (frameCount : Nat) :
    Option ReplacementPolicy :=
  if frameCount = 0 then none
  else some ⟨frameCount, match type with
    | .fifo => .fifo fifoCreate
    | .lru => .lru lruCreate
    | .clock => .clock clockCreate
    | .aging => .aging agingCreate⟩

/-- Put a policy's answer back behind the interface. -/
def ReplacementPolicy.wrap {σ : Type} (policy : ReplacementPolicy) (constructor : σ → PolicyState)
    (answer : Int × σ) : Int × ReplacementPolicy :=
  (answer.1, { policy with state := constructor answer.2 })

def replacementPolicyOnLoad (policy : ReplacementPolicy) (frameNumber : Nat) :
    Int × ReplacementPolicy :=
  if frameNumber < policy.frameCount then
    match policy.state with
    | .fifo s => policy.wrap .fifo (fifoOnLoad policy.frameCount s frameNumber)
    | .lru s => policy.wrap .lru (lruOnLoad s frameNumber)
    | .clock s => policy.wrap .clock (clockOnLoad s frameNumber)
    | .aging s => policy.wrap .aging (agingOnLoad s frameNumber)
  else (-1, policy)

def replacementPolicyOnAccess (policy : ReplacementPolicy) (frameNumber : Nat) :
    Int × ReplacementPolicy :=
  if frameNumber < policy.frameCount then
    match policy.state with
    | .fifo s => policy.wrap .fifo (fifoOnAccess s frameNumber)
    | .lru s => policy.wrap .lru (lruOnAccess s frameNumber)
    | .clock s => policy.wrap .clock (clockOnAccess s frameNumber)
    | .aging s => policy.wrap .aging (agingOnAccess s frameNumber)
  else (-1, policy)

def replacementPolicyOnEvict (policy : ReplacementPolicy) (frameNumber : Nat) :
    Int × ReplacementPolicy :=
  if frameNumber < policy.frameCount then
    match policy.state with
    | .fifo s => policy.wrap .fifo (fifoOnEvict s frameNumber)
    | .lru s => policy.wrap .lru (lruOnEvict s frameNumber)
    | .clock s => policy.wrap .clock (clockOnEvict s frameNumber)
    | .aging s => policy.wrap .aging (agingOnEvict s frameNumber)
  else (-1, policy)

/-- `replacement_policy_choose_victim`; `none` is a search that does not
end. -/
def replacementPolicyChooseVictim (policy : ReplacementPolicy) :
    Option (Nat × ReplacementPolicy) :=
  match policy.state with
  | .fifo s => some ((fifoChooseVictim s).1, policy)
  | .lru s => some ((lruChooseVictim policy.frameCount s).1, policy)
  | .clock s => (clockChooseVictim policy.frameCount s).map fun answer =>
      (answer.1, { policy with state := .clock answer.2 })
  | .aging s => some ((agingChooseVictim policy.frameCount s).1, policy)

/-- `replacement_policy_tick`; only the Aging policy does something. -/
def replacementPolicyTick (policy : ReplacementPolicy) : ReplacementPolicy :=
  match policy.state with
  | .aging s => { policy with state := .aging (agingTick policy.frameCount s) }
  | _ => policy

/-! ## What the interface keeps

`loaded` reads the flags of whichever policy is in use. Every operation
succeeds where the flags allow it and changes them at one frame at
most, so nothing above this module looks at a policy's own state. -/

def PolicyState.loaded : PolicyState → Nat → Bool
  | .fifo s => s.loaded
  | .lru s => s.loaded
  | .clock s => s.loaded
  | .aging s => s.loaded

def ReplacementPolicy.loaded (policy : ReplacementPolicy) : Nat → Bool := policy.state.loaded

def PolicyState.Wf (frameCount : Nat) : PolicyState → Prop
  | .fifo s => s.Wf frameCount
  | .lru s => ∀ f, s.loaded f = true → f < frameCount
  | .clock s => s.Wf frameCount
  | .aging s => ∀ f, s.loaded f = true → f < frameCount

structure ReplacementPolicy.Wf (policy : ReplacementPolicy) : Prop where
  count_lt : policy.frameCount < 2 ^ 32
  state : policy.state.Wf policy.frameCount

theorem ReplacementPolicy.Wf.lt {policy : ReplacementPolicy} (h : policy.Wf) {f : Nat}
    (hl : policy.loaded f = true) : f < policy.frameCount := by
  obtain ⟨n, state⟩ := policy
  cases state with
  | fifo s => exact FifoState.Wf.lt h.state f hl
  | lru s => exact h.state f hl
  | clock s => exact ClockState.Wf.lt h.state f hl
  | aging s => exact h.state f hl

/-- What an operation of the interface did: success, and the flags. -/
structure ReplacementPolicy.Did (policy : ReplacementPolicy) (loaded : Nat → Bool)
    (answer : Int × ReplacementPolicy) : Prop where
  code : answer.1 = 0
  wf : answer.2.Wf
  frameCount : answer.2.frameCount = policy.frameCount
  loaded_eq : answer.2.loaded = loaded

theorem update_loaded_lt {frameCount f : Nat} {loaded : Nat → Bool} (hf : f < frameCount)
    (h : ∀ g, loaded g = true → g < frameCount) (g : Nat)
    (hg : Function.update loaded f true g = true) : g < frameCount := by
  by_cases e : g = f
  · exact e ▸ hf
  · exact h g (by simpa [e] using hg)

theorem update_unloaded_lt {frameCount f : Nat} {loaded : Nat → Bool}
    (h : ∀ g, loaded g = true → g < frameCount) (g : Nat)
    (hg : Function.update loaded f false g = true) : g < frameCount := by
  by_cases e : g = f
  · simp [e] at hg
  · exact h g (by simpa [e] using hg)

theorem replacementPolicyOnLoad_spec {policy : ReplacementPolicy} (h : policy.Wf) {f : Nat}
    (hf : f < policy.frameCount) (hl : policy.loaded f = false) :
    policy.Did (Function.update policy.loaded f true) (replacementPolicyOnLoad policy f) := by
  obtain ⟨n, state⟩ := policy
  obtain ⟨hn, hs⟩ := h
  simp only [replacementPolicyOnLoad, hf, if_true]
  cases state with
  | fifo s =>
    obtain ⟨hc, hw, hload⟩ := fifoOnLoad_spec hs hf hl
    exact ⟨hc, ⟨hn, hw⟩, rfl, hload⟩
  | lru s => exact ⟨rfl, ⟨hn, update_loaded_lt hf hs⟩, rfl, rfl⟩
  | clock s =>
    have hclock : s.Wf n := hs
    exact ⟨rfl, ⟨hn, update_loaded_lt hf hclock.lt, hclock.hand_lt⟩, rfl, rfl⟩
  | aging s => exact ⟨rfl, ⟨hn, update_loaded_lt hf hs⟩, rfl, rfl⟩

theorem replacementPolicyOnAccess_spec {policy : ReplacementPolicy} (h : policy.Wf) {f : Nat}
    (hl : policy.loaded f = true) :
    policy.Did policy.loaded (replacementPolicyOnAccess policy f) := by
  have hf := h.lt hl
  obtain ⟨n, state⟩ := policy
  obtain ⟨hn, hs⟩ := h
  simp only [replacementPolicyOnAccess, hf, if_true]
  cases state with
  | fifo s =>
    have hl' : s.loaded f = true := hl
    exact ⟨by simp [ReplacementPolicy.wrap, fifoOnAccess, hl'], ⟨hn, hs⟩, rfl, rfl⟩
  | lru s =>
    have hl' : s.loaded f = true := hl
    simp only [lruOnAccess, hl', Bool.not_true, Bool.false_eq_true, if_false]
    exact ⟨rfl, ⟨hn, hs⟩, rfl, rfl⟩
  | clock s =>
    have hl' : s.loaded f = true := hl
    have hclock : s.Wf n := hs
    simp only [clockOnAccess, hl', Bool.not_true, Bool.false_eq_true, if_false]
    exact ⟨rfl, ⟨hn, hclock.lt, hclock.hand_lt⟩, rfl, rfl⟩
  | aging s =>
    have hl' : s.loaded f = true := hl
    simp only [agingOnAccess, hl', Bool.not_true, Bool.false_eq_true, if_false]
    exact ⟨rfl, ⟨hn, hs⟩, rfl, rfl⟩

theorem replacementPolicyOnEvict_spec {policy : ReplacementPolicy} (h : policy.Wf) {f : Nat}
    (hl : policy.loaded f = true) :
    policy.Did (Function.update policy.loaded f false) (replacementPolicyOnEvict policy f) := by
  have hf := h.lt hl
  obtain ⟨n, state⟩ := policy
  obtain ⟨hn, hs⟩ := h
  simp only [replacementPolicyOnEvict, hf, if_true]
  cases state with
  | fifo s =>
    obtain ⟨hc, hw, hload⟩ := fifoOnEvict_spec hs hl
    exact ⟨hc, ⟨hn, hw⟩, rfl, hload⟩
  | lru s =>
    have hl' : s.loaded f = true := hl
    simp only [lruOnEvict, hl', Bool.not_true, Bool.false_eq_true, if_false]
    exact ⟨rfl, ⟨hn, update_unloaded_lt hs⟩, rfl, rfl⟩
  | clock s =>
    have hl' : s.loaded f = true := hl
    have hclock : s.Wf n := hs
    simp only [clockOnEvict, hl', Bool.not_true, Bool.false_eq_true, if_false]
    exact ⟨rfl, ⟨hn, update_unloaded_lt hclock.lt, hclock.hand_lt⟩, rfl, rfl⟩
  | aging s =>
    have hl' : s.loaded f = true := hl
    simp only [agingOnEvict, hl', Bool.not_true, Bool.false_eq_true, if_false]
    exact ⟨rfl, ⟨hn, update_unloaded_lt hs⟩, rfl, rfl⟩

theorem replacementPolicyTick_spec {policy : ReplacementPolicy} (h : policy.Wf) :
    policy.Did policy.loaded (0, replacementPolicyTick policy) := by
  obtain ⟨n, state⟩ := policy
  obtain ⟨hn, hs⟩ := h
  cases state with
  | fifo s => exact ⟨rfl, ⟨hn, hs⟩, rfl, rfl⟩
  | lru s => exact ⟨rfl, ⟨hn, hs⟩, rfl, rfl⟩
  | clock s => exact ⟨rfl, ⟨hn, hs⟩, rfl, rfl⟩
  | aging s => exact ⟨rfl, ⟨hn, hs⟩, rfl, rfl⟩

/-- The victim is a loaded frame or `REPLACEMENT_INVALID_FRAME`, and
choosing it loads and unloads nothing. -/
theorem replacementPolicyChooseVictim_spec {policy : ReplacementPolicy} (h : policy.Wf) :
    ∃ victim policy', replacementPolicyChooseVictim policy = some (victim, policy') ∧
      (victim = replacementInvalidFrame ∨ policy.loaded victim = true) ∧
      policy.Did policy.loaded (0, policy') := by
  obtain ⟨n, state⟩ := policy
  obtain ⟨hn, hs⟩ := h
  cases state with
  | fifo s => exact ⟨_, _, rfl, fifoChooseVictim_loaded hs, rfl, ⟨hn, hs⟩, rfl, rfl⟩
  | lru s => exact ⟨_, _, rfl, lruChooseVictim_loaded hn.le s, rfl, ⟨hn, hs⟩, rfl, rfl⟩
  | clock s =>
    obtain ⟨answer, hanswer, hvictim, hload, hw⟩ := clockChooseVictim_spec hn.le hs
    exact ⟨answer.1, ⟨n, .clock answer.2⟩, by simp [replacementPolicyChooseVictim, hanswer],
      hvictim, rfl, ⟨hn, hw⟩, rfl, hload⟩
  | aging s => exact ⟨_, _, rfl, agingChooseVictim_loaded hn.le s, rfl, ⟨hn, hs⟩, rfl, rfl⟩

theorem replacementPolicyCreate_spec {type : ReplacementPolicyType} {frameCount : Nat}
    {policy : ReplacementPolicy} (h : replacementPolicyCreate type frameCount = some policy)
    (hn : frameCount < 2 ^ 32) :
    policy.Wf ∧ policy.frameCount = frameCount ∧ policy.loaded = fun _ => false := by
  unfold replacementPolicyCreate at h
  split at h
  · cases h
  · rename_i hpos
    cases h
    cases type with
    | fifo => exact ⟨⟨hn, fifoCreate_wf frameCount⟩, rfl, rfl⟩
    | lru => exact ⟨⟨hn, by simp [PolicyState.Wf, lruCreate]⟩, rfl, rfl⟩
    | clock => exact ⟨⟨hn, by simp [clockCreate], by simp [clockCreate]; omega⟩, rfl, rfl⟩
    | aging => exact ⟨⟨hn, by simp [PolicyState.Wf, agingCreate]⟩, rfl, rfl⟩

end VmSim
